import InterfaceTables.Proofs.WellFormed

/-!
What a write leaves behind when it fails. It stages both files before it replaces one, but it replaces
them one after the other: if the source is refused when the header is already in place, the new header
stays next to the old source. In every other case a failed write has at most made directories.
-/

namespace InterfaceTables

namespace Artifacts

/-- The source is refused after the header has taken the place of something else. -/
def Torn (as : Artifacts) (dir : Path) (ws : Workspace) : Prop :=
  ∃ staged ws' e, as.HeaderPlaced dir ws staged ws' ∧
    as.placeSource dir ws staged ws' = .error e ∧
    (ws.ensureDirectory dir).workspace.holding (as.header.path dir) ≠
      some (.file as.header.bytes (as.header.mode (ws.ensureDirectory dir).workspace dir))

/-- A header that is out of date can be replaced, and a directory stands in the way of the source. -/
structure SourceBlocked (as : Artifacts) (dir : Path) (ws : Workspace) : Prop where
  replaceable : ∃ staged ws', as.HeaderPlaced dir ws staged ws'
  stale : (ws.ensureDirectory dir).workspace.holding (as.header.path dir) ≠
    some (.file as.header.bytes (as.header.mode (ws.ensureDirectory dir).workspace dir))
  blocked : ∃ m, (ws.ensureDirectory dir).workspace.holding (as.source.path dir) = some (.directory m)

variable {as : Artifacts} {dir : Path} {ws : Workspace} {leaf stem : String} {e : RunError}

/-- A write that fails without being torn has only made directories. -/
theorem workspace_of_not_torn (hp : (as.header.path dir).EndsIn leaf)
    (h : (as.write dir ws).result = .error e) (ht : ¬ as.Torn dir ws) :
    (as.write dir ws).workspace = (ws.ensureDirectory dir).workspace := by
  cases as.write_cases dir ws with
  | inr h => exact h.2
  | inl hplaced =>
    obtain ⟨staged, ws', hplaced⟩ := hplaced
    cases hs : as.placeSource dir ws staged ws' with
    | ok ws'' =>
      rw [write_of_placeSource_ok hplaced hs] at h
      cases h
    | error e' =>
      have hsame := Workspace.eq_of_place_upToDate hp hplaced.placed
        (Classical.byContradiction fun hh => ht ⟨staged, ws', e', hplaced, hs, hh⟩)
      rw [write_of_placeSource_error hplaced hs, dropSource, hsame,
        Workspace.dropStaged_of_staging hplaced.staging]

theorem Torn.not_gains (hn : as.Named dir stem) (ht : as.Torn dir ws) :
    ¬ ws.tree.Gains (as.write dir ws).workspace.tree := by
  obtain ⟨staged, ws', e, hplaced, hs, hh⟩ := ht
  rw [write_of_placeSource_error hplaced hs]
  obtain ⟨d, hnd, hne, hfile⟩ := Workspace.exists_of_place_stale hn.header hplaced.placed hh
  rw [← Workspace.get?_dropStaged (FileTree.fileName_ne_spareName _ _ _ _)] at hfile
  intro hgains
  have hnd' : ¬ (as.dropSource dir ws staged ws').tree.IsDirectory
      (ArtifactKind.header.fileName stem :: d) := by
    rintro ⟨m, hm⟩
    cases hfile.symm.trans hm
  have hmade := (ws.grows_ensureDirectory dir).tree.get?_before hnd
  rw [hgains.get?_before hnd'] at hmade
  exact hne (hmade.symm.trans hfile)

/-- What a path held before a write that is not torn, it holds after it. -/
theorem holding_of_not_torn (hp : (as.header.path dir).EndsIn leaf)
    (h : (as.write dir ws).result = .error e) (ht : ¬ as.Torn dir ws) {p : Path} {x : Entry}
    (hx : ws.holding p = some x) : (as.write dir ws).workspace.holding p = some x := by
  have hg := ws.grows_ensureDirectory dir
  obtain ⟨loc, hr, hl⟩ := Workspace.holding_eq_some_iff.mp hx
  obtain ⟨hf, hlead⟩ := Workspace.resolve_eq_ok_iff.mp hr
  rw [workspace_of_not_torn hp h ht, Workspace.holding_eq_some_iff]
  refine ⟨loc, Workspace.resolve_eq_ok_iff.mpr ⟨hf, ?_⟩, hg.tree.get? hl⟩
  rw [Workspace.start_eq hg.workingDir p]
  exact hg.tree.keeps.leads hlead

/-- In a directory that was there, a failed write leaves both paths as they were unless it is torn. -/
theorem holding_eq_iff_not_torn (hn : as.Named dir stem)
    (h : (as.write dir ws).result = .error e) (hd : ws.isDirectory dir = true) :
    (∀ a ∈ as.toList, (as.write dir ws).workspace.holding (a.path dir) = ws.holding (a.path dir)) ↔
      ¬ as.Torn dir ws := by
  have hmade := Workspace.ensureDirectory_of_isDirectory hd
  constructor
  · rintro hsame ⟨staged, ws', e', hplaced, hs, hh⟩
    have hheader := hsame as.header (by simp [toList])
    rw [write_of_placeSource_error hplaced hs] at hheader
    have hpl := hplaced.placed
    rw [hmade] at hpl hh
    exact Workspace.holding_ne_of_place_stale hn.header (FileTree.fileName_ne_spareName _ _ _ _) hpl hh
      hheader
  · intro ht a _
    rw [workspace_of_not_torn hn.header h ht, hmade]

end Artifacts

namespace Workspace

variable {ws ws' : Workspace} {dir : Path} {baseName : String} {staged : Location}
  {contents contents' : ByteArray} {mode mode' : Nat}

/-- Once a file has taken the place of no link, only a directory can keep the other file out. -/
theorem place_other_iff {k k' : ArtifactKind} (hk : k' ≠ k) (hw : ws.tree.WellFormed)
    (hs : ws.tree.IsDirectory staged)
    (h : ws.place staged (dir.join (k.fileName baseName)) contents mode = .ok ws')
    (hlink : ∀ target, ws.holding (dir.join (k.fileName baseName)) ≠ some (.link target)) :
    (∃ ws'', ws'.place staged (dir.join (k'.fileName baseName)) contents' mode' = .ok ws'') ↔
      ∀ m, ws.holding (dir.join (k'.fileName baseName)) ≠ some (.directory m) := by
  obtain ⟨stem, hstem⟩ := spot_join_fileName dir baseName
  obtain ⟨hp, hsibling⟩ := hstem k
  obtain ⟨d, hspot, hnd, _, hc, rfl⟩ := (place_eq_ok_iff hp).mp h
  rw [hspot.holding] at hlink
  -- Both places are in `d`, which stays as it was.
  have hne : k'.fileName stem :: d ≠ k.fileName stem :: d :=
    fun he => hk (ArtifactKind.fileName_injective (List.cons.inj he).1)
  have hspot' : ws.Spot (dir.join (k'.fileName baseName)) (k'.fileName stem :: d) :=
    hsibling ws d k' hspot
  have hafter : (ws.insert (k.fileName stem :: d) (.file contents mode)).Spot
      (dir.join (k'.fileName baseName)) (k'.fileName stem :: d) :=
    hsibling _ d k' ⟨_, hspot.resolve_insert hp hnd hlink, rfl⟩
  have hget : (ws.insert (k.fileName stem :: d) (.file contents mode)).tree.get?
      (k'.fileName stem :: d) = ws.tree.get? (k'.fileName stem :: d) :=
    FileTree.get?_insert_of_ne _ _ hne
  rw [hspot'.holding]
  constructor
  · rintro ⟨ws'', h'⟩ m hm
    obtain ⟨d', hspot'', hnd', _⟩ := (place_eq_ok_iff (hstem k').1).mp h'
    cases hafter.unique hspot''
    exact hnd' ⟨m, by rw [hget, hm]⟩
  · intro hm
    refine ⟨_, (place_eq_ok_iff (hstem k').1).mpr ⟨d, hafter, ?_, Or.inr ?_, ?_, rfl⟩⟩
    · rintro ⟨m, hd⟩
      exact hm m (by rw [← hget, hd])
    · rw [FileTree.isSuffixOf_eq_false]
      intro hsuffix
      obtain ⟨m, hd⟩ := hw.isDirectory_suffix hs hsuffix
      exact hm m hd
    · obtain ⟨m, hd, hwrite⟩ := mayChange_iff.mp hc
      refine mayChange_iff.mpr ⟨m, ?_, hwrite⟩
      rw [insert, FileTree.get?_insert_of_ne _ _ (List.cons_ne_self _ _).symm, hd]

end Workspace

namespace Artifacts

variable {records : List InterfaceRecord} {baseName : String} {dir : Path} {ws : Workspace}

/-- With the header in place of no link, the source is refused only where a directory stands. -/
theorem HeaderPlaced.placeSource_ok_iff {staged : Location} {ws' : Workspace}
    (h : (render records baseName).HeaderPlaced dir ws staged ws') (hw : ws.tree.WellFormed)
    (hlink : ∀ target, (ws.ensureDirectory dir).workspace.holding
      ((render records baseName).header.path dir) ≠ some (.link target)) :
    (∃ ws'', (render records baseName).placeSource dir ws staged ws' = .ok ws'') ↔
      ∀ m, (ws.ensureDirectory dir).workspace.holding ((render records baseName).source.path dir) ≠
        some (.directory m) := by
  have hstaged := Workspace.isDirectory_of_mayChange (Workspace.mayChange_of_staging h.staging)
  obtain ⟨stem, hn⟩ := exists_named records baseName dir
  obtain ⟨hkeeps, hdir⟩ := Workspace.keeps_of_place hn.header h.placed hlink
  have hstaging := Workspace.staging_of_keeps hkeeps hdir h.staging
  simp only [placeSource, Workspace.placeStaged_of_staging hstaging]
  have hother : ArtifactKind.source ≠ .header := by decide
  exact Workspace.place_other_iff hother (Workspace.wellFormed_ensureDirectory hw dir) hstaged h.placed
    hlink

/-- As long as the header takes the place of no link, this is the only way to a torn write. -/
theorem torn_render_iff (hw : ws.tree.WellFormed)
    (hlink : ∀ target, (ws.ensureDirectory dir).workspace.holding
      ((render records baseName).header.path dir) ≠ some (.link target)) :
    (render records baseName).Torn dir ws ↔ (render records baseName).SourceBlocked dir ws := by
  constructor
  · rintro ⟨staged, ws', e, hplaced, hs, hh⟩
    refine ⟨⟨staged, ws', hplaced⟩, hh, Classical.byContradiction fun hm => ?_⟩
    obtain ⟨ws'', hok⟩ := (hplaced.placeSource_ok_iff hw hlink).mpr fun m h => hm ⟨m, h⟩
    rw [hok] at hs
    cases hs
  · rintro ⟨⟨staged, ws', hplaced⟩, hh, m, hm⟩
    cases hs : (render records baseName).placeSource dir ws staged ws' with
    | error e => exact ⟨staged, ws', e, hplaced, hs, hh⟩
    | ok ws'' => exact absurd hm ((hplaced.placeSource_ok_iff hw hlink).mp ⟨ws'', hs⟩ m)

/-- A write that fails leaves all entries as they were, and both paths of a directory that was there,
unless it is torn. Without links a torn write is one whose source is blocked. -/
theorem failed_write_keeps_iff_not_torn {as : Artifacts} {records : List InterfaceRecord}
    {baseName : String} {dir : Path} {ws : Workspace} {e : RunError}
    (has : as = render records baseName) (h : (as.write dir ws).result = .error e) :
    (ws.tree.Gains (as.write dir ws).workspace.tree ↔ ¬ as.Torn dir ws) ∧
    (¬ as.Torn dir ws → ∀ p x, ws.holding p = some x →
      (as.write dir ws).workspace.holding p = some x) ∧
    (ws.isDirectory dir = true →
      ((∀ a ∈ as.toList,
          (as.write dir ws).workspace.holding (a.path dir) = ws.holding (a.path dir)) ↔
        ¬ as.Torn dir ws)) ∧
    (ws.tree.WellFormed →
      (∀ target, (ws.ensureDirectory dir).workspace.holding (as.header.path dir) ≠
        some (.link target)) →
      (as.Torn dir ws ↔ as.SourceBlocked dir ws)) := by
  subst has
  obtain ⟨stem, hn⟩ := exists_named records baseName dir
  refine ⟨⟨fun hg ht => ht.not_gains hn hg, fun ht => ?_⟩,
    fun ht p x hx => holding_of_not_torn hn.header h ht hx,
    holding_eq_iff_not_torn hn h, torn_render_iff⟩
  rw [workspace_of_not_torn hn.header h ht]
  exact (ws.grows_ensureDirectory dir).tree

/-- A directory `o` with an old header `o/t.h` that is no text, and a directory in the place of
`o/t.c`. -/
def blockedSource : Workspace where
  tree := ((FileTree.empty.insert ["o"] (.directory directoryMode)).insert ["t.c", "o"]
    (.directory directoryMode)).insert ["t.h", "o"] (.file ⟨#[255]⟩ fileMode)
  workingDir := []

theorem reached_blockedSource : blockedSource.Reached := by
  have hdir : Workspace.Reached ⟨(FileTree.empty.insert ["o"] (.directory directoryMode)).insert
      ["t.c", "o"] (.directory directoryMode), [], 0o022⟩ :=
    .step (.empty [] 0o022) (.ensureDirectory "o/t.c")
  have hfile : Workspace.writeFile ⟨(FileTree.empty.insert ["o"] (.directory directoryMode)).insert
      ["t.c", "o"] (.directory directoryMode), [], 0o022⟩ "o/t.h" ⟨#[255]⟩ = .ok blockedSource := rfl
  exact hdir.step (.writeFile hfile)

/-- A generated file is text. -/
theorem bytes_ne_of_not_text (a : Artifact) {bytes : ByteArray} (h : ¬ bytes.IsValidUTF8) :
    a.bytes ≠ bytes := by
  rintro rfl
  exact h a.contents.isValidUTF8

theorem blockedSource_torn :
    (((render [] "t").write "o" blockedSource).result = .error (.write "o/t.c" .isDirectory)) ∧
      (render [] "t").SourceBlocked "o" blockedSource ∧
      ¬ ∀ a ∈ (render [] "t").toList,
        ((render [] "t").write "o" blockedSource).workspace.holding (a.path "o") =
          blockedSource.holding (a.path "o") := by
  have hresult : ((render [] "t").write "o" blockedSource).result =
      .error (.write "o/t.c" .isDirectory) := rfl
  have hblocked : (render [] "t").SourceBlocked "o" blockedSource := by
    refine ⟨⟨["o"], _, rfl, rfl, rfl⟩, fun h => ?_, _, rfl⟩
    have hh : (blockedSource.ensureDirectory "o").workspace.holding
        ((render [] "t").header.path "o") = some (.file ⟨#[255]⟩ fileMode) := rfl
    rw [hh, Option.some.injEq, Entry.file.injEq] at h
    exact bytes_ne_of_not_text _ (by decide) h.1.symm
  obtain ⟨_, _, hpaths, htorn⟩ := failed_write_keeps_iff_not_torn rfl hresult
  have ht := (htorn reached_blockedSource.wellFormed (by rintro target ⟨⟩)).mpr hblocked
  exact ⟨hresult, hblocked, fun hsame => (hpaths rfl).mp hsame ht⟩

end Artifacts

end InterfaceTables
