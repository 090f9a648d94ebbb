import InterfaceTables.Proofs.OneDocument

/-!
A run after a run. What a write leaves is what the same run would write again, so nothing changes any
more; a check agrees as far as it may read the files.
-/

namespace InterfaceTables

namespace FileTree

variable {t t' : FileTree}

theorem LinkFree.of_gains (hl : t.LinkFree) (h : t.Gains t') : t'.LinkFree := by
  intro loc target hlink
  cases h loc with
  | inl he => exact hl loc target (he ▸ hlink)
  | inr hn =>
    obtain ⟨_, mode, hm⟩ := hn
    cases hm.symm.trans hlink

theorem LinkFree.insert_file (hl : t.LinkFree) {loc : Location} {contents : ByteArray} {mode : Nat}
    (hloc : loc ≠ []) : (t.insert loc (.file contents mode)).LinkFree := by
  intro l target hlink
  by_cases he : l = loc
  · subst he
    rw [get?_insert_self t l _ hloc] at hlink
    cases hlink
  · rw [get?_insert_of_ne t _ he] at hlink
    exact hl l target hlink

end FileTree

namespace Workspace

variable {ws ws' : Workspace} {p : Path} {leaf : String} {staged : Location} {contents : ByteArray}
  {mode : Nat}

/-- Without links it does not matter whether one at the end is followed. -/
theorem stat_eq_ok_iff_of_linkFree (hl : ws.tree.LinkFree) {loc : Location} {e : Entry} :
    ws.stat p = .ok (loc, e) ↔ ws.entry .kept p = .ok (loc, e) := by
  rw [stat, entry_eq_ok_iff, entry_eq_ok_iff, resolve_eq_ok_iff, resolve_eq_ok_iff]
  refine and_congr_left fun _ => and_congr_right fun _ => ⟨fun h => ?_, fun h => h.followed (hl loc)⟩
  obtain ⟨loc', hk⟩ := h.exists_kept
  cases h.unique (hk.followed (hl loc'))
  exact hk

/-- A file stands at a path that ends in a name, in a directory that may be changed. -/
structure Standing (ws : Workspace) (p : Path) (leaf : String) (contents : ByteArray) (mode : Nat) :
    Prop where
  endsIn : p.EndsIn leaf
  found : ∃ dir, ws.resolve .kept p = .ok (.entry (leaf :: dir)) ∧
    ws.tree.get? (leaf :: dir) = some (.file contents mode) ∧ ws.mayChange dir = true

/-- A file that was placed stands; the rest of the tree is as it was. -/
structure Placed (ws ws' : Workspace) (p : Path) (leaf : String) (contents : ByteArray) (mode : Nat) :
    Prop where
  standing : ws'.Standing p leaf contents mode
  keeps : ws.tree.Keeps ws'.tree
  workingDir : ws'.workingDir = ws.workingDir
  linkFree : ws'.tree.LinkFree
  get?_of_ne : ∀ {name loc}, name ≠ leaf → ws'.tree.get? (name :: loc) = ws.tree.get? (name :: loc)

theorem placed_of_place (hl : ws.tree.LinkFree) (hp : p.EndsIn leaf)
    (h : ws.place staged p contents mode = .ok ws') : Placed ws ws' p leaf contents mode := by
  obtain ⟨dir, hspot, hnd, _, hc, rfl⟩ := (place_eq_ok_iff hp).mp h
  have hk : ws.tree.Keeps (ws.insert (leaf :: dir) (.file contents mode)).tree :=
    FileTree.keeps_insert_file (by simp) hnd (hl _)
  refine ⟨⟨hp, dir, hspot.resolve_insert hp hnd (hl _), ?_, mayChange_of_keeps hk hc⟩, hk, rfl,
    hl.insert_file (by simp), fun hne => ?_⟩
  · exact FileTree.get?_insert_self _ _ _ (by simp)
  · exact FileTree.get?_insert_of_ne _ _ fun he => hne (List.cons.inj he).1

theorem Standing.of_placed {p' : Path} {leaf' : String} {contents' : ByteArray} {mode' : Nat}
    (hs : ws.Standing p leaf contents mode) (h : Placed ws ws' p' leaf' contents' mode')
    (hne : leaf ≠ leaf') : ws'.Standing p leaf contents mode := by
  obtain ⟨hp, dir, hr, hg, hc⟩ := hs
  refine ⟨hp, dir, resolve_of_keeps h.keeps h.workingDir hr, ?_, mayChange_of_keeps h.keeps hc⟩
  rw [h.get?_of_ne hne, hg]

theorem Standing.stat (hs : ws.Standing p leaf contents mode) :
    ∃ loc, ws.stat p = .ok (loc, .file contents mode) := by
  obtain ⟨_, dir, hr, hg, _⟩ := hs
  obtain ⟨hf, hlead⟩ := resolve_eq_ok_iff.mp hr
  have hlead' := hlead.followed fun target ht => by
    rw [hg] at ht
    cases ht
  exact ⟨_, entry_eq_ok_iff.mpr ⟨resolve_eq_ok_iff.mpr ⟨hf, hlead'⟩, hg⟩⟩

theorem mode_of_stat {loc : Location} (h : ws.stat p = .ok (loc, .file contents mode)) :
    ws.mode p = .ok mode := by
  simp [Workspace.mode, h]

theorem holding_directory_of_keeps {m : Nat} (hk : ws.tree.Keeps ws'.tree)
    (hd : ws'.workingDir = ws.workingDir) (h : ws.holding p = some (.directory m)) :
    ws'.holding p = some (.directory m) := by
  obtain ⟨loc, hr, hg⟩ := holding_eq_some_iff.mp h
  exact holding_eq_some_iff.mpr ⟨loc, resolve_of_keeps hk hd hr, hk.directory hg⟩

theorem holding_ne_directory_of_place (hp : p.EndsIn leaf)
    (h : ws.place staged p contents mode = .ok ws') (m : Nat) :
    ws.holding p ≠ some (.directory m) := by
  obtain ⟨d, hspot, hnd, _⟩ := (place_eq_ok_iff hp).mp h
  rw [hspot.holding]
  exact fun hm => hnd ⟨m, hm⟩

/-- To place a file once more changes nothing. -/
theorem Standing.place (hs : ws.Standing p leaf contents mode) (hw : ws.tree.WellFormed)
    (hd : ws.tree.IsDirectory staged) : ws.place staged p contents mode = .ok ws := by
  obtain ⟨hp, dir, hr, hg, hc⟩ := hs
  have hnd : ¬ ws.tree.IsDirectory (leaf :: dir) := by
    rintro ⟨m, hm⟩
    rw [hg] at hm
    cases hm
  refine (place_eq_ok_iff hp).mpr ⟨dir, ⟨_, hr, rfl⟩, hnd, Or.inr ?_, hc, ?_⟩
  · rw [FileTree.isSuffixOf_eq_false]
    exact fun hsuffix => hnd (hw.isDirectory_suffix hd hsuffix)
  · rw [insert, FileTree.insert_eq_self (by simp) hg]

/-! ## Documents stay the same -/

variable {extension : String}

theorem SameSources.trans {ws'' : Workspace} (h : SameSources extension ws ws')
    (h' : SameSources extension ws' ws'') : SameSources extension ws ws'' where
  keeps := h.keeps.trans h'.keeps
  workingDir := by rw [h'.workingDir, h.workingDir]
  file_iff hext := (h'.file_iff hext).trans (h.file_iff hext)

theorem Grows.sameSources (h : ws.Grows ws') : SameSources extension ws ws' where
  keeps := h.tree.keeps
  workingDir := h.workingDir
  file_iff {name loc contents mode} _ := by
    refine ⟨fun hf => ?_, h.tree.get?⟩
    rw [h.tree.get?_before, hf]
    rintro ⟨m, hm⟩
    rw [hf] at hm
    cases hm

theorem Placed.sameSources (h : Placed ws ws' p leaf contents mode)
    (hext : Path.extension? leaf ≠ some extension) : SameSources extension ws ws' where
  keeps := h.keeps
  workingDir := h.workingDir
  file_iff {name loc contents mode} hname := by
    have hne : name ≠ leaf := fun he => hext (he ▸ hname)
    rw [h.get?_of_ne hne]

end Workspace

namespace Artifact

variable {a : Artifact} {dir : Path} {ws : Workspace}

/-- The file stands at its path as it was generated. -/
def InPlace (a : Artifact) (dir : Path) (ws : Workspace) : Prop :=
  ∃ leaf, ws.Standing (a.path dir) leaf a.bytes (a.mode ws dir)

theorem mode_of_stat {loc : Location} {contents : ByteArray} {mode : Nat}
    (h : ws.stat (a.path dir) = .ok (loc, .file contents mode)) : a.mode ws dir = mode := by
  unfold Artifact.mode
  rw [Workspace.mode_of_stat h]

theorem mode_of_standing {leaf : String} {contents : ByteArray} {mode : Nat}
    (h : ws.Standing (a.path dir) leaf contents mode) : a.mode ws dir = mode := by
  obtain ⟨loc, hs⟩ := h.stat
  exact mode_of_stat hs

theorem InPlace.check_iff (h : a.InPlace dir ws) :
    a.check ws dir = .ok () ↔ mayRead (a.mode ws dir) = true := by
  obtain ⟨leaf, hs⟩ := h
  obtain ⟨loc, hstat⟩ := hs.stat
  unfold check
  rw [Workspace.readBytes_of_stat hstat]
  cases mayRead (a.mode ws dir) with
  | true => simp
  | false => simp

/-- A file that is new, or takes the place of one that may be read, may be read. -/
theorem mayRead_mode_iff (hl : ws.tree.LinkFree)
    (hnd : ∀ m, ws.holding (a.path dir) ≠ some (.directory m)) :
    mayRead (a.mode ws dir) = true ↔
      ∀ contents mode, ws.holding (a.path dir) = some (.file contents mode) → mayRead mode = true := by
  have hstat : ∀ {loc e}, ws.stat (a.path dir) = .ok (loc, e) → ws.holding (a.path dir) = some e := by
    intro loc e hs
    simp [Workspace.holding, (Workspace.stat_eq_ok_iff_of_linkFree hl).mp hs]
  have hholding : ∀ {e}, ws.holding (a.path dir) = some e →
      ∃ loc, ws.stat (a.path dir) = .ok (loc, e) := by
    intro e he
    obtain ⟨loc, hr, hg⟩ := Workspace.holding_eq_some_iff.mp he
    exact ⟨loc, (Workspace.stat_eq_ok_iff_of_linkFree hl).mpr (Workspace.entry_eq_ok_iff.mpr ⟨hr, hg⟩)⟩
  cases hs : ws.stat (a.path dir) with
  | error err =>
    have hmode : a.mode ws dir = fileMode := by
      unfold Artifact.mode Workspace.mode
      rw [hs]
    rw [hmode]
    refine iff_of_true (by decide) fun contents mode he => ?_
    obtain ⟨loc, hs'⟩ := hholding he
    rw [hs] at hs'
    cases hs'
  | ok found =>
    obtain ⟨loc, e⟩ := found
    rw [hstat hs]
    cases e with
    | directory m => exact absurd (hstat hs) (hnd m)
    | link target => exact absurd (Workspace.entry_eq_ok_iff.mp hs).2 (hl loc target)
    | file contents m =>
      rw [mode_of_stat hs]
      constructor
      · rintro hr _ _ ⟨⟩
        exact hr
      · intro h
        exact h contents m rfl

end Artifact

namespace Artifacts

theorem putAll_of_unchanged {put : Workspace → Artifact → Nat → Except IoError Workspace}
    {drop : Workspace → Artifact → Nat → Workspace} {dir : Path} {ws : Workspace}
    {files : List (Artifact × Nat)} (h : ∀ f ∈ files, put ws f.1 f.2 = .ok ws) :
    putAll put drop dir ws files = ⟨.ok (), ws, files.map fun f => .wrote (f.1.path dir)⟩ := by
  induction files with
  | nil => rfl
  | cons f rest ih =>
    obtain ⟨a, mode⟩ := f
    have hput : put ws a mode = .ok ws := h (a, mode) (by simp)
    simp [putAll, hput, ih fun g hg => h g (List.mem_cons_of_mem _ hg), Outcome.logFirst]

theorem compareAll_eq_ok_iff {compare : Artifact → Except Mismatch Unit} {dir : Path}
    {files : List Artifact} :
    (compareAll compare dir files).1 = .ok () ↔ ∀ a ∈ files, compare a = .ok () := by
  induction files with
  | nil => simp [compareAll]
  | cons a rest ih =>
    cases hc : compare a with
    | error m => simp [compareAll, hc]
    | ok u => simp [compareAll, hc, ih]

variable {as : Artifacts} {dir : Path} {ws : Workspace}

/-- Files that are in place are written without a change. -/
theorem write_of_inPlace (hd : dir ≠ "") (hw : ws.tree.WellFormed) {staged : Location}
    (hs : ws.staging dir = .ok staged) (h : ∀ a ∈ as.toList, a.InPlace dir ws) :
    (as.write dir ws).result = .ok () ∧ (as.write dir ws).workspace = ws := by
  obtain ⟨_, mode, hstat, hc⟩ := (Workspace.staging_eq_ok_iff hd).mp hs
  have hmade := Workspace.ensureDirectory_of_isDirectory (Workspace.isDirectory_iff.mpr ⟨_, _, hstat⟩)
  have hput : ∀ f ∈ as.toList.map fun a => (a, a.mode ws dir),
      ws.placeStaged dir staged (f.1.path dir) f.1.bytes f.2 = .ok ws := by
    intro f hf
    obtain ⟨a, ha, rfl⟩ := List.mem_map.mp hf
    obtain ⟨leaf, hstand⟩ := h a ha
    rw [Workspace.placeStaged_of_staging hs]
    exact hstand.place hw (Workspace.isDirectory_of_mayChange hc)
  have hwrite : as.write dir ws =
      putAll (fun ws a mode => ws.placeStaged dir staged (a.path dir) a.bytes mode)
        (fun ws a mode => ws.dropStaged dir staged a.bytes mode) dir ws
        (as.toList.map fun a => (a, a.mode ws dir)) := by
    simp only [write, hmade, hs, placeAll]
  rw [hwrite, putAll_of_unchanged hput]
  exact ⟨rfl, rfl⟩

/-- Files that are in place pass a check if they may be read. -/
theorem check_of_inPlace (hd : ws.isDirectory dir = true) (h : ∀ a ∈ as.toList, a.InPlace dir ws) :
    (as.check dir ws).result = .ok () ↔ ∀ a ∈ as.toList, mayRead (a.mode ws dir) = true := by
  simp only [check, hd, if_true, checkAll, compareAll_eq_ok_iff]
  exact forall₂_congr fun a ha => (h a ha).check_iff

theorem check_workspace (as : Artifacts) (dir : Path) (ws : Workspace) :
    (as.check dir ws).workspace = ws := by
  unfold check
  split <;> rfl

/-- What a write that succeeds leaves behind. -/
structure Written (as : Artifacts) (dir : Path) (ws ws' : Workspace) : Prop where
  staging : ∃ staged, ws'.staging dir = .ok staged
  inPlace : ∀ a ∈ as.toList, a.InPlace dir ws'
  mode : ∀ a ∈ as.toList, a.mode ws' dir = a.mode (ws.ensureDirectory dir).workspace dir
  replaced : ∀ a ∈ as.toList, ∀ m,
    (ws.ensureDirectory dir).workspace.holding (a.path dir) ≠ some (.directory m)
  sources : ∀ extension, extension ≠ "h" → extension ≠ "c" →
    Workspace.SameSources extension ws ws'
  linkFree : ws'.tree.LinkFree
  wellFormed : ws'.tree.WellFormed

theorem written_of_write_ok {stem : String} (hn : as.Named dir stem)
    (hw : ws.tree.WellFormed) (hl : ws.tree.LinkFree) (h : (as.write dir ws).result = .ok ()) :
    as.Written dir ws (as.write dir ws).workspace := by
  have hne : ArtifactKind.header.fileName stem ≠ ArtifactKind.source.fileName stem :=
    fun he => by cases ArtifactKind.fileName_injective he
  have hother : ∀ {k : ArtifactKind} {extension}, extension ≠ "h" → extension ≠ "c" →
      Path.extension? (k.fileName stem) ≠ some extension := by
    intro k extension hh hc hext
    have he := ArtifactKind.extension?_fileName hext
    cases k with
    | header => exact hh he
    | source => exact hc he
  obtain ⟨staged, ws', ws'', hplaced, hs, hdone⟩ := exists_placed_of_write_ok h
  rw [hdone]
  have hgrows := ws.grows_ensureDirectory dir
  have hheader := Workspace.placed_of_place (hl.of_gains hgrows.tree) hn.header hplaced.placed
  have hsource := Workspace.placed_of_place hheader.linkFree hn.source hs
  have hstanding := hheader.standing.of_placed hsource hne
  have hkeeps := hheader.keeps.trans hsource.keeps
  have hdir := hsource.workingDir.trans hheader.workingDir
  have hmode := Artifact.mode_of_standing hstanding
  have hmode' := Artifact.mode_of_standing hsource.standing
  exact {
    staging := ⟨staged, Workspace.staging_of_keeps hkeeps hdir hplaced.staging⟩
    inPlace := forall_mem_toList.mpr
      ⟨⟨_, hmode.symm ▸ hstanding⟩, ⟨_, hmode'.symm ▸ hsource.standing⟩⟩
    mode := forall_mem_toList.mpr ⟨hmode, hmode'⟩
    replaced := forall_mem_toList.mpr
      ⟨Workspace.holding_ne_directory_of_place hn.header hplaced.placed,
        fun m hm => Workspace.holding_ne_directory_of_place hn.source hs m
          (Workspace.holding_directory_of_keeps hheader.keeps hheader.workingDir hm)⟩
    sources := fun extension hh hc =>
      (hgrows.sameSources.trans (hheader.sameSources (hother hh hc))).trans
        (hsource.sameSources (hother hh hc))
    linkFree := hsource.linkFree
    wellFormed := Workspace.wellFormed_place (Workspace.wellFormed_place
      (Workspace.wellFormed_ensureDirectory hw dir) hplaced.placed) hs }

/-- A second write changes nothing. -/
theorem write_after_write {stem : String} (hn : as.Named dir stem) (hd : dir ≠ "")
    (hw : ws.tree.WellFormed) (hl : ws.tree.LinkFree) (h : (as.write dir ws).result = .ok ()) :
    (as.write dir (as.write dir ws).workspace).result = .ok () ∧
      (as.write dir (as.write dir ws).workspace).workspace = (as.write dir ws).workspace := by
  have hwritten := written_of_write_ok hn hw hl h
  obtain ⟨staged, hstaged⟩ := hwritten.staging
  exact write_of_inPlace hd hwritten.wellFormed hstaged hwritten.inPlace

/-- A check finds what was written, unless a file that may not be read stood there before. -/
theorem check_after_write_iff {stem : String} (hn : as.Named dir stem) (hd : dir ≠ "")
    (hw : ws.tree.WellFormed) (hl : ws.tree.LinkFree) (h : (as.write dir ws).result = .ok ()) :
    (as.check dir (as.write dir ws).workspace).result = .ok () ↔
      ∀ a ∈ as.toList, ∀ contents mode,
        (ws.ensureDirectory dir).workspace.holding (a.path dir) = some (.file contents mode) →
          mayRead mode = true := by
  have hwritten := written_of_write_ok hn hw hl h
  obtain ⟨staged, hstaged⟩ := hwritten.staging
  obtain ⟨_, m, hstat, _⟩ := (Workspace.staging_eq_ok_iff hd).mp hstaged
  have hmade := hl.of_gains (ws.grows_ensureDirectory dir).tree
  rw [check_of_inPlace (Workspace.isDirectory_iff.mpr ⟨_, _, hstat⟩) hwritten.inPlace]
  refine forall₂_congr fun a ha => ?_
  rw [hwritten.mode a ha]
  exact Artifact.mayRead_mode_iff hmade (hwritten.replaced a ha)

end Artifacts

section Runs

variable {o : RunOptions} {ws : Workspace} {count : Nat} {as : Artifacts} {r : Report}

theorem workspace_run (hp : o.prepare ws = .ok (count, as)) :
    (run o ws).workspace = (o.emit as ws).workspace := by
  unfold run
  rw [hp]
  dsimp only
  split <;> rfl

theorem run_eq_ok_iff (hp : o.prepare ws = .ok (count, as)) :
    (run o ws).result = .ok r ↔ (o.emit as ws).result = .ok () ∧ r = o.report count as := by
  unfold run
  rw [hp]
  dsimp only
  cases (o.emit as ws).result with
  | error e => simp
  | ok done => simp [eq_comm]

theorem exists_prepare_of_run (h : (run o ws).result = .ok r) :
    ∃ count as, o.prepare ws = .ok (count, as) := by
  cases hp : o.prepare ws with
  | ok prepared => exact ⟨prepared.1, prepared.2, rfl⟩
  | error e =>
    unfold run at h
    rw [hp] at h
    cases h

theorem eq_render_of_compile {documents : List Document} {baseName : String}
    (h : compile documents baseName = .ok as) :
    as = render (documents.map Document.record) baseName := by
  unfold compile at h
  dsimp only at h
  split at h
  · cases h
  · exact (Except.ok.inj h).symm

theorem exists_render_of_prepare (hp : o.prepare ws = .ok (count, as)) :
    ∃ records, as = render records o.baseName := by
  unfold RunOptions.prepare at hp
  split at hp
  · cases hp
  · split at hp
    · cases hp
    · rename_i hc
      cases hp
      exact ⟨_, eq_render_of_compile hc⟩

theorem exists_named_of_prepare (hp : o.prepare ws = .ok (count, as)) :
    ∃ stem, as.Named o.outputDir stem := by
  obtain ⟨records, rfl⟩ := exists_render_of_prepare hp
  exact Artifacts.exists_named records o.baseName o.outputDir

/-- What is written is no document, even where documents are read. -/
theorem prepare_after_write (hw : ws.tree.WellFormed) (hl : ws.tree.LinkFree)
    (hh : o.load.extension ≠ "h") (hc : o.load.extension ≠ "c")
    (hp : o.prepare ws = .ok (count, as)) (h : (as.write o.outputDir ws).result = .ok ()) :
    o.prepare (as.write o.outputDir ws).workspace = .ok (count, as) := by
  obtain ⟨stem, hn⟩ := exists_named_of_prepare hp
  have hwritten := Artifacts.written_of_write_ok hn hw hl h
  have hfound := (hwritten.sources _ hh hc).sameFound hl hwritten.linkFree o.schemaDir
  exact hfound.prepare hl hwritten.linkFree hw hwritten.wellFormed hp

theorem forall_path_iff (hp : o.prepare ws = .ok (count, as)) {P : Path → Prop} :
    (∀ a ∈ as.toList, P (a.path o.outputDir)) ↔
      ∀ k : ArtifactKind, P (o.outputDir.join (k.fileName o.baseName)) := by
  obtain ⟨records, rfl⟩ := exists_render_of_prepare hp
  rw [Artifacts.forall_mem_toList]
  constructor
  · rintro ⟨hheader, hsource⟩ k
    cases k with
    | header => exact hheader
    | source => exact hsource
  · intro h
    exact ⟨h .header, h .source⟩

theorem workspace_write (hm : o.mode = .write) (hp : o.prepare ws = .ok (count, as)) :
    (run o ws).workspace = (as.write o.outputDir ws).workspace := by
  rw [workspace_run hp]
  simp only [RunOptions.emit, hm]

/-- A check of files that the same options wrote. -/
theorem check_run_after_write_iff (hw : ws.tree.WellFormed) (hl : ws.tree.LinkFree)
    (hd : o.outputDir ≠ "") (hh : o.load.extension ≠ "h") (hc : o.load.extension ≠ "c")
    (hp : o.prepare ws = .ok (count, as)) (h : (as.write o.outputDir ws).result = .ok ()) :
    (run { o with mode := .check } (as.write o.outputDir ws).workspace).result =
        .ok { o.report count as with mode := .check } ↔
      ∀ (k : ArtifactKind) (contents : ByteArray) (mode : Nat),
        (ws.ensureDirectory o.outputDir).workspace.holding
          (o.outputDir.join (k.fileName o.baseName)) = some (.file contents mode) →
        mayRead mode = true := by
  obtain ⟨stem, hn⟩ := exists_named_of_prepare hp
  have hcheck : RunOptions.prepare { o with mode := .check } (as.write o.outputDir ws).workspace =
    .ok (count, as) := prepare_after_write hw hl hh hc hp h
  have hfiles := Artifacts.check_after_write_iff hn hd hw hl h
  rw [run_eq_ok_iff hcheck]
  exact (and_iff_left rfl).trans (hfiles.trans (forall_path_iff hp (P := fun p =>
    ∀ contents mode, (ws.ensureDirectory o.outputDir).workspace.holding p =
      some (.file contents mode) → mayRead mode = true)))

/-- After a run that wrote its files, the same run writes them without a change, and a check changes
nothing and reports the same as long as no file that may not be read stood in the place of one. -/
theorem run_after_write (hw : ws.tree.WellFormed) (hl : ws.tree.LinkFree) (hd : o.outputDir ≠ "")
    (hh : o.load.extension ≠ "h") (hc : o.load.extension ≠ "c") (hm : o.mode = .write)
    (h : (run o ws).result = .ok r) :
    (run o (run o ws).workspace).result = .ok r ∧
    (run o (run o ws).workspace).workspace = (run o ws).workspace ∧
    (run { o with mode := .check } (run o ws).workspace).workspace = (run o ws).workspace ∧
    ((run { o with mode := .check } (run o ws).workspace).result = .ok { r with mode := .check } ↔
      ∀ (k : ArtifactKind) (contents : ByteArray) (mode : Nat),
        (ws.ensureDirectory o.outputDir).workspace.holding
          (o.outputDir.join (k.fileName o.baseName)) = some (.file contents mode) →
        mayRead mode = true) := by
  obtain ⟨count, as, hp⟩ := exists_prepare_of_run h
  obtain ⟨stem, hn⟩ := exists_named_of_prepare hp
  obtain ⟨hdone, rfl⟩ := (run_eq_ok_iff hp).mp h
  simp only [RunOptions.emit, hm] at hdone
  rw [workspace_write hm hp]
  have hp' := prepare_after_write hw hl hh hc hp hdone
  have hcheck : RunOptions.prepare { o with mode := .check } (as.write o.outputDir ws).workspace =
    .ok (count, as) := hp'
  obtain ⟨hagain, hsame⟩ := Artifacts.write_after_write hn hd hw hl hdone
  refine ⟨(run_eq_ok_iff hp').mpr ⟨?_, rfl⟩, ?_, ?_,
    check_run_after_write_iff hw hl hd hh hc hp hdone⟩
  · simp only [RunOptions.emit, hm, hagain]
  · rw [workspace_write hm hp', hsame]
  · rw [workspace_run hcheck]
    exact as.check_workspace o.outputDir _

end Runs

/-- A directory `o` with the document of one mapping and an old header `o/t.h` of the given mode. -/
def oldHeader (mode : Nat) : Workspace where
  tree := ((FileTree.empty.insert ["o"] (.directory directoryMode)).insert ["a.json", "o"]
    (.file (OneMapping.text "n" "/v").toUTF8 fileMode)).insert ["t.h", "o"] (.file ⟨#[255]⟩ mode)
  workingDir := []

/-- Reads and writes in the directory `o`. -/
def intoOldHeader : RunOptions := ⟨"o", "o", "t", .write, ⟨"json", true⟩⟩

/-- The files that are generated there. -/
def newTables : Artifacts := render [oneRecord "o/a.json"] "t"

theorem reached_oldHeader (mode : Nat) : (oldHeader (permissionBits mode)).Reached := by
  have hdir : Workspace.Reached ⟨FileTree.empty.insert ["o"] (.directory directoryMode), [], 0o022⟩ :=
    .step (.empty [] 0o022) (.ensureDirectory "o")
  have hdocument : ∀ contents, Workspace.writeFile
      ⟨FileTree.empty.insert ["o"] (.directory directoryMode), [], 0o022⟩ "o/a.json" contents =
    .ok ⟨(FileTree.empty.insert ["o"] (.directory directoryMode)).insert ["a.json", "o"]
      (.file contents fileMode), [], 0o022⟩ := fun _ => rfl
  have hfile : Workspace.writeFile ⟨(FileTree.empty.insert ["o"] (.directory directoryMode)).insert
      ["a.json", "o"] (.file (OneMapping.text "n" "/v").toUTF8 fileMode), [], 0o022⟩ "o/t.h" ⟨#[255]⟩ =
    .ok (oldHeader fileMode) := rfl
  have hmode : (oldHeader fileMode).setMode "o/t.h" mode =
    .ok (oldHeader (permissionBits mode)) := rfl
  exact ((hdir.step (.writeFile (hdocument _))).step (.writeFile hfile)).step (.setMode hmode)

theorem linkFree_oldHeader (mode : Nat) : (oldHeader mode).tree.LinkFree := by
  have hdir : FileTree.LinkFree (FileTree.empty.insert ["o"] (.directory directoryMode)) :=
    FileTree.LinkFree.of_gains (by rintro (_ | ⟨name, dir⟩) target ⟨⟩) (FileTree.gains_insert rfl _)
  exact (hdir.insert_file (by simp)).insert_file (by simp)

theorem prepare_oldHeader (mode : Nat) :
    intoOldHeader.prepare (oldHeader mode) = .ok (1, newTables) := by
  have hdir : (oldHeader mode).stat "o" = .ok (["o"], .directory directoryMode) := rfl
  have hnames : (oldHeader mode).tree.names ["o"] = ["a.json", "t.h"] := rfl
  have hfound : (oldHeader mode).discover "o" "json" = .ok ["o/a.json"] :=
    Workspace.discover_of_names hdir (by decide) hnames (by decide) "json"
  exact RunOptions.prepare_oneMapping (o := intoOldHeader) hfound rfl (by decide) rfl

/-- Both files are put into the directory. -/
theorem write_oldHeader (records : List InterfaceRecord) (mode : Nat) :
    (render records "t").write "o" (oldHeader mode) =
      ⟨.ok (), ((oldHeader mode).insert ["t.h", "o"] (.file (render records "t").header.bytes mode)).insert
        ["t.c", "o"] (.file (render records "t").source.bytes fileMode),
        [.wrote "o/t.h", .wrote "o/t.c"]⟩ := by
  have hstaging : (oldHeader mode).staging "o" = .ok ["o"] := Workspace.staging_of_root rfl rfl rfl rfl
  have hstaging' : ∀ e, ((oldHeader mode).insert ["t.h", "o"] e).staging "o" = .ok ["o"] :=
    fun _ => Workspace.staging_of_root rfl rfl rfl rfl
  obtain ⟨hheader, hsource⟩ := Artifacts.path_render records "t" "o"
  exact Artifacts.write_of_places rfl hstaging (hstaging' _) ⟨hheader, rfl⟩ ⟨hsource, rfl⟩ rfl rfl

theorem run_oldHeader (mode : Nat) :
    (run intoOldHeader (oldHeader mode)).result = .ok (intoOldHeader.report 1 newTables) := by
  refine (run_eq_ok_iff (prepare_oldHeader mode)).mpr ⟨?_, rfl⟩
  show (newTables.write "o" (oldHeader mode)).result = .ok ()
  rw [newTables, write_oldHeader]

theorem holding_oldHeader (mode : Nat) :
    ((oldHeader mode).ensureDirectory "o").workspace.holding "o/t.h" =
      some (.file ⟨#[255]⟩ mode) := rfl

/-- The document is loaded, and an old header that is read-only is replaced. -/
theorem run_after_write_readOnly :
    (run intoOldHeader (run intoOldHeader (oldHeader 0o444)).workspace).workspace =
        (run intoOldHeader (oldHeader 0o444)).workspace ∧
      (run { intoOldHeader with mode := .check }
          (run intoOldHeader (oldHeader 0o444)).workspace).result =
        .ok { intoOldHeader.report 1 newTables with mode := .check } := by
  obtain ⟨_, hsame, _, hcheck⟩ := run_after_write (reached_oldHeader 0o444).wellFormed
    (linkFree_oldHeader 0o444) (by decide) (by decide) (by decide) rfl (run_oldHeader 0o444)
  refine ⟨hsame, hcheck.mpr fun k contents mode h => ?_⟩
  cases k with
  | header =>
    have hmode : some (Entry.file ⟨#[255]⟩ 0o444) = some (.file contents mode) := h
    cases hmode
    decide
  | source => cases h

/-- A header that may not be read is written again but fails the check. -/
theorem check_after_write_fails :
    ¬ ∀ (o : RunOptions) (ws : Workspace) (r : Report), ws.tree.WellFormed → ws.tree.LinkFree →
      o.outputDir ≠ "" → o.load.extension ≠ "h" → o.load.extension ≠ "c" → o.mode = .write →
      (run o ws).result = .ok r →
      (run { o with mode := .check } (run o ws).workspace).result = .ok { r with mode := .check } := by
  intro h
  have hw := (reached_oldHeader 0).wellFormed
  have hl := linkFree_oldHeader 0
  have hp := prepare_oldHeader 0
  have hok := h intoOldHeader (oldHeader 0) _ hw hl (by decide) (by decide) (by decide) rfl
    (run_oldHeader 0)
  rw [workspace_write rfl hp] at hok
  have hwrite := congrArg Outcome.result (write_oldHeader [oneRecord "o/a.json"] 0)
  have hread := (check_run_after_write_iff hw hl (by decide) (by decide) (by decide) hp hwrite).mp hok
  exact absurd (hread .header _ _ (holding_oldHeader 0)) (by decide)

end InterfaceTables
