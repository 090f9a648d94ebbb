import InterfaceTables.Proofs.WrittenState

/-!
A check right after a write, for any path of the output directory but the empty one. The check finds both
files as they were written, unless it may not read what a write may replace, or a file that took the place
of a link is in the way.
-/

namespace InterfaceTables

namespace Artifacts

variable {as : Artifacts} {dir : Path} {ws made : Workspace} {stem : String} {d staged : Location}

namespace Places

/-- The path of the output directory leads to a directory exactly if it does not go through a link that
the source has replaced. -/
theorem isDirectory_iff (h : as.Places dir made stem d staged) (hd : dir ≠ "") :
    (as.withBoth dir made stem d).isDirectory dir = true ↔
      ¬ made.GoesThrough .followed dir (as.source.place stem d) := by
  obtain ⟨m, -, hstat⟩ := h.stat_directory_iff
  rw [Path.orHere_of_ne_empty hd] at hstat
  rw [Workspace.isDirectory_iff]
  constructor
  · rintro ⟨loc, m', hs⟩ hthrough
    obtain ⟨hr, hm'⟩ := Workspace.entry_eq_ok_iff.mp hs
    have hsolid := h.solid_between
    rw [h.source_place] at hsolid hthrough
    have hcut := Workspace.cut_off_insert h.overwrites_between rfl (by simp) hsolid hthrough hr
    exact hcut.2 ⟨m', hm'⟩
  · intro hpast
    exact ⟨staged, m, hstat.mpr hpast⟩

/-- A file can be read as it was written if its path still leads there and its mode permits it. -/
theorem readBytes_iff (h : as.Places dir made stem d staged) {a : Artifact} (ha : a ∈ as.toList) :
    (as.withBoth dir made stem d).readBytes (a.path dir) = .ok a.bytes ↔
      ¬ made.GoesThrough .kept (a.path dir) (as.source.place stem d) ∧
        mayRead (a.mode made dir) = true := by
  rw [← h.stat_iff a ha]
  constructor
  · intro hr
    obtain ⟨loc, m, hs, hm⟩ := Workspace.readBytes_eq_ok_iff.mp hr
    obtain ⟨rfl, he⟩ := h.eq_of_stat ha hs
    cases he
    exact ⟨hs, hm⟩
  · rintro ⟨hs, hm⟩
    exact Workspace.readBytes_eq_ok_iff.mpr ⟨_, _, hs, hm⟩

end Places

/-- A check passes after a write exactly if no path of a file led to what may not be read, and neither the
path of the directory nor that of a file went through a link in the place of the source. -/
theorem check_passes_after_write_iff {records : List InterfaceRecord} {baseName : String} (hd : dir ≠ "")
    (h : ((render records baseName).write dir ws).result = .ok ()) :
    ((render records baseName).check dir
        ((render records baseName).write dir ws).workspace).result = .ok () ↔
      (∀ a ∈ (render records baseName).toList, ∀ mode,
        (ws.ensureDirectory dir).workspace.mode (a.path dir) = .ok mode → mayRead mode = true) ∧
      ∀ spot, (ws.ensureDirectory dir).workspace.Spot ((render records baseName).source.path dir) spot →
        ¬ (ws.ensureDirectory dir).workspace.GoesThrough .followed dir spot ∧
        ∀ a ∈ (render records baseName).toList,
          ¬ (ws.ensureDirectory dir).workspace.GoesThrough .kept (a.path dir) spot := by
  obtain ⟨stem, d, staged, hp, hdone⟩ := exists_places h
  obtain ⟨-, hsource⟩ := forall_mem_toList.mp hp.spots
  rw [hdone, check_eq_ok_iff, hp.isDirectory_iff hd]
  constructor
  · rintro ⟨hdir, hfiles⟩
    refine ⟨fun a ha => ?_, fun spot hspot => ?_⟩
    · exact mayRead_mode_iff_forall.mp ((hp.readBytes_iff ha).mp (hfiles a ha)).2
    · cases hspot.unique hsource
      exact ⟨hdir, fun a ha => ((hp.readBytes_iff ha).mp (hfiles a ha)).1⟩
  · rintro ⟨hmode, hpast⟩
    obtain ⟨hdir, hfiles⟩ := hpast _ hsource
    refine ⟨hdir, fun a ha => (hp.readBytes_iff ha).mpr ⟨hfiles a ha, ?_⟩⟩
    exact mayRead_mode_iff_forall.mpr (hmode a ha)

end Artifacts

/-- The header took the place of a link to a file that could be read, and the path ends in a slash. -/
theorem check_sharedHeader :
    intoOldHeader.prepare (sharedHeader 0o640) = .ok (1, newTables) ∧
      (newTables.write "o/" (sharedHeader 0o640)).result = .ok () ∧
      (newTables.check "o/" (newTables.write "o/" (sharedHeader 0o640)).workspace).result = .ok () := by
  have hwrite : (newTables.write "o/" (sharedHeader 0o640)).result = .ok () :=
    write_ok_sharedHeader _ (.inr rfl)
  have hsource : ((sharedHeader 0o640).ensureDirectory "o/").workspace.Spot
      (newTables.source.path "o/") ["t.c", "o"] := ⟨_, rfl, rfl⟩
  refine ⟨prepare_sharedHeader 0o640, hwrite,
    (Artifacts.check_passes_after_write_iff (by decide) hwrite).mpr ⟨?_, ?_⟩⟩
  · refine Artifacts.forall_mem_toList.mpr ⟨fun mode hmode => ?_, fun mode hmode => by cases hmode⟩
    have hmode' : Except.ok 0o640 = Except.ok mode := hmode
    cases hmode'
    decide
  · intro spot hspot
    cases hspot.unique hsource
    have hnone : ∀ last p, ¬ ((sharedHeader 0o640).ensureDirectory "o/").workspace.GoesThrough
        last p ["t.c", "o"] := by
      intro last p hthrough
      obtain ⟨target, hlink⟩ := hthrough.exists_link
      cases hlink
    exact ⟨hnone _ _, fun a _ => hnone _ _⟩

/-- A header that may not be read is replaced, keeps its mode, and fails the check. -/
theorem check_denied_after_write :
    ¬ ∀ (records : List InterfaceRecord) (baseName : String) (dir : Path) (ws : Workspace),
      ws.tree.WellFormed → ws.tree.LinkFree → dir ≠ "" →
      ((render records baseName).write dir ws).result = .ok () →
      ((render records baseName).check dir
        ((render records baseName).write dir ws).workspace).result = .ok () := by
  intro h
  have hwrite : ((render [] "t").write "o" (oldHeader 0)).result = .ok () := by rw [write_oldHeader]
  have hcheck := h [] "t" "o" (oldHeader 0) (reached_oldHeader 0).wellFormed (linkFree_oldHeader 0)
    (by decide) hwrite
  obtain ⟨stem, hn⟩ := Artifacts.exists_named [] "t" "o"
  have hread := (Artifacts.check_after_write_iff hn (by decide) (reached_oldHeader 0).wellFormed
    (linkFree_oldHeader 0) hwrite).mp hcheck
  exact absurd (hread (render [] "t").header (by simp [Artifacts.toList]) _ _ (holding_oldHeader 0))
    (by decide)

end InterfaceTables
